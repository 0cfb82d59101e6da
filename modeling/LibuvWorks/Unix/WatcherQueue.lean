import LibuvWorks.Lib.Ring
import LibuvWorks.Watchers

/-!
# The queue of a loop watcher kind: `unix/loop-watcher.c`

The queue is a ring of links inside the handles. A round moves it to a head of its own, and puts
each watcher back before its callback is called. `UV_CLOSED`, which `uv__finish_close` sets, is part
of `closing`; the counters of the loop are left out.
-/
namespace LibuvWorks.Unix

open RingLinks List

variable {ι γ : Type*} [DecidableEq ι]

/-- What a link of the queue is in: `loop->*_handles`, the local `queue`, or a handle. -/
inductive QueueNode (ι : Type*) where
  | loop : QueueNode ι
  | run : QueueNode ι
  | handle (w : ι) : QueueNode ι
  deriving DecidableEq

/-- The watchers of a kind. `current` is the one whose callback runs, and `calls` are the calls of
callbacks so far. -/
structure WatcherQueue (ι γ : Type*) where
  links : RingLinks (QueueNode ι)
  active : ι → Bool
  closing : ι → Bool
  watcherCb : ι → Option γ
  current : Option ι
  calls : List (ι × γ)

namespace WatcherQueue

variable (q : WatcherQueue ι γ)

/-- `uv_*_start`; `UV__HANDLE_CLOSING` is 0 on unix, so the assertion of `uv__handle_start` always
holds. -/
def uvWatcherStart (w : ι) (cb : Option γ) : ℤ × WatcherQueue ι γ :=
  if q.active w then (0, q)
  else
    match cb with
    | none => (einval, q)
    | some c =>
      (0, { q with
        links := q.links.insertHead .loop (.handle w)
        watcherCb := Function.update q.watcherCb w (some c)
        active := Function.update q.active w true })

/-- `uv_*_stop` -/
def uvWatcherStop (w : ι) : ℤ × WatcherQueue ι γ :=
  if q.active w = false then (0, q)
  else
    (0, { q with
      links := q.links.remove (.handle w)
      active := Function.update q.active w false })

/-- `uv_close` with `uv__*_close` -/
def uvClose (w : ι) : Except Fault (WatcherQueue ι γ) :=
  if q.closing w then .error .assertion
  else .ok ({ q with closing := Function.update q.closing w true }.uvWatcherStop w).2

/-- An iteration of the loop in `uv__run_*`, up to the callback. -/
def uvRunTurn : Except Fault (WatcherQueue ι γ) :=
  let n := q.links.next .run
  if n = .run then .ok { q with current := none }
  else
    match n with
    | .handle w =>
      match q.watcherCb w with
      | none => .error .crash
      | some c =>
        .ok { q with
          links := (q.links.remove n).insertTail .loop n
          current := some w
          calls := q.calls ++ [(w, c)] }
    | _ => .error .crash

/-- `uv__run_*` -/
def uvRun : Except Fault (WatcherQueue ι γ) := { q with links := q.links.move .loop .run }.uvRunTurn

def next : WatcherEvent ι γ → Except Fault (WatcherQueue ι γ)
  | .start w cb => .ok (q.uvWatcherStart w cb).2
  | .stop w => .ok (q.uvWatcherStop w).2
  | .close w => q.uvClose w
  | .invoke => if q.current = none then q.uvRun else .ok q
  | .returned => if q.current = none then .ok q else q.uvRunTurn

/-- After `uv_loop_init`, with all handles initialised; the links of the handles are not set. -/
def init (junk : RingLinks (QueueNode ι)) : WatcherQueue ι γ :=
  ⟨junk.init .loop, fun _ => false, fun _ => false, fun _ => none, none, []⟩

def view : WatcherView ι γ := ⟨q.active, q.current, q.calls⟩

end WatcherQueue

def watcherView (junk : RingLinks (QueueNode ι)) (es : List (WatcherEvent ι γ)) :
    Except Fault (WatcherView ι γ) :=
  (es.foldlM WatcherQueue.next (WatcherQueue.init junk)).map WatcherQueue.view

namespace WatcherQueue

/-! ## The queue is the list of active watchers -/

variable {q : WatcherQueue ι γ} {s : Watchers ι γ}

def node (x : ι × γ) : QueueNode ι := .handle x.1

/-- The watchers that are due are in the local queue, the other ones in the queue of the loop. -/
structure Refines (q : WatcherQueue ι γ) (s : Watchers ι γ) : Prop where
  loop : Ring q.links .loop (s.rest.map node)
  run : q.current ≠ none → Ring q.links .run (s.due.map node)
  lists : s.Lists q.active q.watcherCb
  sound : s.Sound
  current : q.current = s.current
  calls : q.calls = s.calls

theorem view_eq (h : Refines q s) : q.view = s.view := by
  have hactive : q.active = fun w => decide (w ∈ s.names) := by
    funext w
    rw [Bool.eq_iff_iff, h.lists.active w, decide_eq_true_iff]
  simp only [view, Watchers.view, hactive, h.current, h.calls]

omit [DecidableEq ι] in
theorem node_not_mem {xs : List (ι × γ)} {w : ι} {n : QueueNode ι} (hw : w ∉ xs.map Prod.fst)
    (hn : n ≠ .handle w) : QueueNode.handle w ∉ n :: xs.map node := by
  rw [mem_cons, not_or]
  refine ⟨hn.symm, fun hmem => hw ?_⟩
  obtain ⟨x, hx, hnode⟩ := mem_map.mp hmem
  cases hnode
  exact mem_map_of_mem hx

omit [DecidableEq ι] in
theorem nodes_disjoint (hnd : s.names.Nodup) :
    (∀ n ∈ QueueNode.run :: s.due.map node, n ∉ QueueNode.loop :: s.rest.map node) ∧
      ∀ n ∈ QueueNode.loop :: s.rest.map node, n ∉ QueueNode.run :: s.due.map node := by
  rw [Watchers.names, Watchers.all, map_append, nodup_append] at hnd
  have hne : ∀ x ∈ s.rest, ∀ y ∈ s.due, x.1 ≠ y.1 := fun x hx y hy =>
    hnd.2.2 _ (mem_map_of_mem hx) _ (mem_map_of_mem hy)
  have hdisj : ∀ n, n ∈ QueueNode.run :: s.due.map node → n ∈ QueueNode.loop :: s.rest.map node →
      False := by
    intro n hrun hloop
    simp only [mem_cons, mem_map] at hrun hloop
    rcases hrun with rfl | ⟨y, hy, rfl⟩
    · simp [node] at hloop
    · rcases hloop with habs | ⟨x, hx, hxy⟩
      · simp [node] at habs
      · exact hne x hx y hy (QueueNode.handle.inj hxy)
  exact ⟨fun n hrun hloop => hdisj n hrun hloop, fun n hloop hrun => hdisj n hrun hloop⟩

theorem Refines.start (h : Refines q s) (w : ι) (cb : Option γ) :
    Refines (q.uvWatcherStart w cb).2 (s.start w cb) := by
  unfold uvWatcherStart
  by_cases hw : w ∈ s.names
  · rw [if_pos ((h.lists.active w).mpr hw), Watchers.start_listed hw]
    exact h
  · rw [if_neg (fun habs => hw ((h.lists.active w).mp habs))]
    cases cb with
    | none =>
      rw [Watchers.start_none]
      exact h
    | some c =>
      have hsound := h.sound.start w (some c)
      rw [Watchers.start_some hw c] at hsound ⊢
      have hnames : w ∉ s.rest.map Prod.fst ∧ w ∉ s.due.map Prod.fst := by
        simpa [Watchers.names, Watchers.all] using hw
      constructor
      case loop =>
        exact h.loop.insertHead (node_not_mem hnames.1 (by simp))
      case run =>
        intro hcur
        apply h.loop.insertHead_of_disjoint (h.run hcur)
        intro n hn
        constructor
        · rintro rfl
          exact node_not_mem hnames.2 (by simp) hn
        · exact (nodes_disjoint h.lists.names).1 n hn
      case lists => exact h.lists.start hw c
      case sound => exact hsound
      case current => exact h.current
      case calls => exact h.calls

theorem Refines.unlink (h : Refines q s) {w : ι} (hw : w ∈ s.names) :
    Ring (q.links.remove (.handle w)) .loop ((s.stop w).rest.map node) ∧
      (q.current ≠ none → Ring (q.links.remove (.handle w)) .run ((s.stop w).due.map node)) := by
  obtain ⟨x, hx, rfl⟩ := mem_map.mp hw
  have hnd := h.lists.names
  rw [Watchers.names, Watchers.all, map_append, nodup_append] at hnd
  obtain ⟨hrest, hdue, hdisj⟩ := hnd
  obtain ⟨hrun, hloop⟩ := nodes_disjoint h.lists.names
  rcases mem_append.mp hx with hx | hx
  · -- it is not due
    have hkeep : s.due.filter (·.1 ≠ x.1) = s.due := by
      apply Watchers.filter_absent
      intro habs
      exact hdisj _ (mem_map_of_mem hx) _ habs rfl
    obtain ⟨ys, zs, hsplit⟩ := append_of_mem hx
    have hring := h.loop
    rw [hsplit] at hrest hring hrun
    rw [map_append, map_cons] at hring hrun
    constructor
    · change Ring _ _ ((s.rest.filter (·.1 ≠ x.1)).map node)
      rw [hsplit, Watchers.filter_split hrest, map_append]
      exact hring.remove
    · intro hcur
      change Ring _ _ ((s.due.filter (·.1 ≠ x.1)).map node)
      rw [hkeep]
      exact hring.remove_of_disjoint (h.run hcur) hrun
  · -- it is due, so a round is going on
    have hcur : q.current ≠ none := by
      intro habs
      rw [h.sound.outside (h.current.symm.trans habs)] at hx
      exact not_mem_nil hx
    have hkeep : s.rest.filter (·.1 ≠ x.1) = s.rest := by
      apply Watchers.filter_absent
      intro habs
      exact hdisj _ habs _ (mem_map_of_mem hx) rfl
    obtain ⟨ys, zs, hsplit⟩ := append_of_mem hx
    have hring := h.run hcur
    rw [hsplit] at hdue hring hloop
    rw [map_append, map_cons] at hring hloop
    constructor
    · change Ring _ _ ((s.rest.filter (·.1 ≠ x.1)).map node)
      rw [hkeep]
      exact hring.remove_of_disjoint h.loop hloop
    · intro _
      change Ring _ _ ((s.due.filter (·.1 ≠ x.1)).map node)
      rw [hsplit, Watchers.filter_split hdue, map_append]
      exact hring.remove

theorem Refines.stop (h : Refines q s) (w : ι) : Refines (q.uvWatcherStop w).2 (s.stop w) := by
  by_cases hw : w ∈ s.names
  · have hactive : ¬ q.active w = false := by simp [(h.lists.active w).mpr hw]
    rw [uvWatcherStop, if_neg hactive]
    obtain ⟨hloop, hrun⟩ := h.unlink hw
    exact ⟨hloop, hrun, h.lists.stop w, h.sound.stop w, h.current, h.calls⟩
  · have hactive : q.active w = false := by
      apply eq_false_of_ne_true
      exact fun habs => hw ((h.lists.active w).mp habs)
    rw [uvWatcherStop, if_pos hactive, Watchers.stop_absent hw]
    exact h

/-- The first watcher that is due goes back to the queue of the loop and is called. -/
theorem uvRunTurn_refines (hloop : Ring q.links .loop (s.rest.map node))
    (hrun : Ring q.links .run (s.due.map node)) (hlists : s.Lists q.active q.watcherCb)
    (hcalls : q.calls = s.calls) :
    ∃ t, q.uvRunTurn = .ok t ∧ Refines t s.proceed ∧ t.closing = q.closing := by
  unfold uvRunTurn
  have hproceed := hlists.proceed
  have hsound := Watchers.sound_proceed hlists.names
  have hhead : q.links.next .run = (s.due.map node).headD .run := hrun.next.head
  cases hdue : s.due with
  | nil =>
    rw [Watchers.proceed_nil hdue] at hproceed hsound ⊢
    rw [hdue, map_nil, headD_nil] at hhead
    rw [hhead, if_pos rfl]
    refine ⟨_, rfl, ⟨hloop, fun habs => absurd rfl habs, hproceed, hsound, rfl, hcalls⟩, rfl⟩
  | cons x xs =>
    obtain ⟨hrunloop, hlooprun⟩ := nodes_disjoint hlists.names
    rw [Watchers.proceed_cons hdue] at hproceed hsound ⊢
    rw [hdue, map_cons] at hhead hrun hrunloop hlooprun
    have hcb := hlists.watcherCb x (by simp [Watchers.all, hdue])
    simp only [hhead, headD_cons, node, reduceCtorEq, if_false, hcb]
    -- the two rings, first without the watcher and then with it in the queue of the loop
    have hfirst : Ring q.links .run ([] ++ node x :: xs.map node) := hrun
    have hrun' : Ring (q.links.remove (node x)) .run (xs.map node) := hfirst.remove
    have hloop' : Ring (q.links.remove (node x)) .loop (s.rest.map node) :=
      hfirst.remove_of_disjoint hloop hlooprun
    have hnot : node x ∉ QueueNode.loop :: s.rest.map node := hrunloop _ (by simp)
    refine ⟨_, rfl, ⟨?_, fun _ => ?_, hproceed, hsound, rfl, ?_⟩, rfl⟩
    · rw [map_append]
      exact hloop'.insertTail hnot
    · apply hloop'.insertTail_of_disjoint hrun'
      intro n hn
      constructor
      · rintro rfl
        have hnd := hrun.nodup
        rw [nodup_cons, nodup_cons] at hnd
        rcases mem_cons.mp hn with habs | hn
        · simp at habs
        · exact hnd.2.1 hn
      · apply hrunloop
        rcases mem_cons.mp hn with hn | hn
        · exact mem_cons.mpr (.inl hn)
        · exact mem_cons_of_mem _ (mem_cons_of_mem _ hn)
    · rw [hcalls]

theorem Refines.invoke (h : Refines q s) (hcur : q.current = none) :
    ∃ t, q.uvRun = .ok t ∧ Refines t (s.next .invoke) ∧ t.closing = q.closing := by
  have hs : s.current = none := h.current.symm.trans hcur
  have hall : s.all = s.rest := by rw [Watchers.all, h.sound.outside hs, append_nil]
  have hrun : QueueNode.run ∉ QueueNode.loop :: s.rest.map node := by
    rw [mem_cons, mem_map, not_or]
    exact ⟨by simp, by simp [node]⟩
  obtain ⟨hmoved, hempty⟩ := h.loop.move hrun
  rw [← hall] at hmoved
  have hturn := uvRunTurn_refines (q := { q with links := q.links.move .loop .run })
    (s := { s with rest := [], due := s.all }) hempty hmoved h.lists.all_due h.calls
  rwa [Watchers.next, if_pos hs]

theorem Refines.close (h : Refines q s) {w : ι} (hw : q.closing w = false) :
    ∃ t, q.uvClose w = .ok t ∧ Refines t (s.stop w) ∧
      t.closing = Function.update q.closing w true := by
  have hclosing : Refines { q with closing := Function.update q.closing w true } s :=
    { h with }
  rw [uvClose, if_neg (by simp [hw])]
  refine ⟨_, rfl, hclosing.stop w, ?_⟩
  unfold uvWatcherStop
  split_ifs <;> rfl

theorem next_refines (q : WatcherQueue ι γ) (s : Watchers ι γ) (e : WatcherEvent ι γ)
    (h : Refines q s) (he : ∀ w, e.reuses w = true → q.closing w = false) :
    ∃ t, q.next e = .ok t ∧ Refines t (s.next e) ∧
      ∀ w, t.closing w = true ↔ q.closing w = true ∨ e = .close w := by
  cases e with
  | start w cb =>
    refine ⟨_, rfl, h.start w cb, fun v => ?_⟩
    have hclosing : (q.uvWatcherStart w cb).2.closing = q.closing := by
      unfold uvWatcherStart
      split_ifs
      · rfl
      · cases cb <;> rfl
    simp [hclosing]
  | stop w =>
    refine ⟨_, rfl, h.stop w, fun v => ?_⟩
    have hclosing : (q.uvWatcherStop w).2.closing = q.closing := by
      unfold uvWatcherStop
      split_ifs <;> rfl
    simp [hclosing]
  | close w =>
    obtain ⟨t, ht, href, hclosing⟩ := h.close (he w (decide_eq_true rfl))
    refine ⟨t, ht, href, fun v => ?_⟩
    rw [hclosing, WatcherEvent.close.injEq]
    by_cases hv : v = w
    · simp [hv]
    · simp [hv, Ne.symm hv]
  | invoke =>
    by_cases hcur : q.current = none
    · obtain ⟨t, ht, href, hclosing⟩ := h.invoke hcur
      refine ⟨t, ?_, href, fun v => ?_⟩
      · rw [WatcherQueue.next, if_pos hcur, ht]
      · simp [hclosing]
    · have hs : ¬ s.current = none := h.current ▸ hcur
      refine ⟨q, if_neg hcur, ?_, by simp⟩
      rwa [Watchers.next, if_neg hs]
  | returned =>
    by_cases hcur : q.current = none
    · have hs : s.current = none := h.current.symm.trans hcur
      refine ⟨q, if_pos hcur, ?_, by simp⟩
      rwa [Watchers.next, if_pos hs]
    · have hs : ¬ s.current = none := h.current ▸ hcur
      obtain ⟨t, ht, href, hclosing⟩ := uvRunTurn_refines h.loop (h.run hcur) h.lists h.calls
      refine ⟨t, ?_, ?_, fun v => ?_⟩
      · rw [WatcherQueue.next, if_neg hcur, ht]
      · rwa [Watchers.next, if_neg hs]
      · simp [hclosing]

theorem refines_init (junk : RingLinks (QueueNode ι)) :
    Refines (init junk : WatcherQueue ι γ) Watchers.init where
  loop := ring_init
  run := fun habs => absurd rfl habs
  lists := ⟨nodup_nil, by simp [init, Watchers.init, Watchers.names, Watchers.all],
    by simp [Watchers.init, Watchers.all]⟩
  sound := Watchers.sound_init
  current := rfl
  calls := rfl

end WatcherQueue

theorem watcherView_eq (junk : RingLinks (QueueNode ι)) (es : List (WatcherEvent ι γ))
    (hes : es.Pairwise WatcherEvent.Respects) :
    watcherView junk es = .ok (Watchers.init.run es).view := by
  obtain ⟨t, ht, href, -⟩ := Watchers.refines_run WatcherQueue.next_refines
    (WatcherQueue.refines_init junk) (fun _ => rfl) es hes
  rw [watcherView, ht, ← WatcherQueue.view_eq href]
  rfl
end LibuvWorks.Unix
