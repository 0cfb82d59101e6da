import LibuvWorks.Handle
import LibuvWorks.Lib.Transition
import Mathlib.Data.List.Sublists

/-!
# Rounds of loop watchers

What `UV_LOOP_WATCHER_DEFINE` is for: the active watchers of one kind are called in rounds, and a
callback may start, stop and close them. A watcher is listed with the callback it was started with;
`due` are those whose turn in the round is still to come.
-/
namespace LibuvWorks

open List Function

variable {ι γ : Type*} [DecidableEq ι]

/-- What happens to the watchers of a kind: the program calls `uv_*_start`, `uv_*_stop` or
`uv_close`, in a callback or outside, the loop begins a round, or the callback that runs returns to
it. -/
inductive WatcherEvent (ι γ : Type*) where
  | start (w : ι) (cb : Option γ) : WatcherEvent ι γ
  | stop (w : ι) : WatcherEvent ι γ
  | close (w : ι) : WatcherEvent ι γ
  | invoke : WatcherEvent ι γ
  | returned : WatcherEvent ι γ

namespace WatcherEvent

/-- The event starts or closes the watcher; a start without a callback only returns an error. -/
def reuses (w : ι) : WatcherEvent ι γ → Bool
  | .start v (some _) => v = w
  | .close v => v = w
  | _ => false

/-- After the first event the second one is within the contract of `uv_close`. -/
def Respects : WatcherEvent ι γ → WatcherEvent ι γ → Prop
  | .close w, e => e.reuses w = false
  | _, _ => True

instance (e e' : WatcherEvent ι γ) : Decidable (Respects e e') := by
  cases e <;> unfold Respects <;> infer_instance

def returns : WatcherEvent ι γ → Bool
  | .returned => true
  | _ => false

def Stops (w : ι) (e : WatcherEvent ι γ) : Prop := e = .stop w ∨ e = .close w

end WatcherEvent

/-- What a program sees: the watchers that are active, the one whose callback runs, and the calls of
callbacks so far. -/
structure WatcherView (ι γ : Type*) where
  active : ι → Bool
  current : Option ι
  calls : List (ι × γ)

structure Watchers (ι γ : Type*) where
  rest : List (ι × γ)
  due : List (ι × γ)
  current : Option ι
  calls : List (ι × γ)

def called (before after : WatcherView ι γ) : List ι :=
  (after.calls.drop before.calls.length).map Prod.fst

/-- A round that begins at the view `start`, after the events `es` of it: `view a` is what is seen
after the events `a`, and `v` what is seen after all of them. -/
structure IsRound (view : List (WatcherEvent ι γ) → Except Fault (WatcherView ι γ))
    (start : WatcherView ι γ) (es : List (WatcherEvent ι γ)) (v : WatcherView ι γ) : Prop where
  appends : start.calls <+: v.calls
  once : (called start v).Nodup
  active : ∀ w ∈ called start v, start.active w = true
  /-- A watcher that was stopped is not called in the rest of the round. -/
  stopped : ∀ a b mid w, es = a ++ b → view a = .ok mid → (∃ e ∈ a, WatcherEvent.Stops w e) →
    mid.calls <+: v.calls ∧ w ∉ called mid v
  /-- In the end every watcher was called unless it was stopped. -/
  complete : v.current = none → ∀ w, start.active w = true →
    w ∈ called start v ∨ ∃ e ∈ es, WatcherEvent.Stops w e
  /-- The round is over when as many callbacks have returned as watchers were active. -/
  ended : ∃ ws : List ι, ws.Nodup ∧ (∀ w, w ∈ ws ↔ start.active w = true) ∧
    (ws.length ≤ es.countP WatcherEvent.returns → v.current = none)

omit [DecidableEq ι] in
theorem IsRound.congr {view view' : List (WatcherEvent ι γ) → Except Fault (WatcherView ι γ)}
    {start v : WatcherView ι γ} {es : List (WatcherEvent ι γ)} (h : IsRound view start es v)
    (hview : ∀ a b, es = a ++ b → view' a = view a) : IsRound view' start es v :=
  { h with
    stopped := by
      intro a b mid w hes hmid hstop
      rw [hview a b hes] at hmid
      exact h.stopped a b mid w hes hmid hstop }

namespace Watchers

variable (s : Watchers ι γ)

def all : List (ι × γ) := s.rest ++ s.due

def names : List ι := s.all.map Prod.fst

def start (w : ι) (cb : Option γ) : Watchers ι γ :=
  if w ∈ s.names then s
  else
    match cb with
    | none => s
    | some c => { s with rest := (w, c) :: s.rest }

def stop (w : ι) : Watchers ι γ :=
  { s with rest := s.rest.filter (·.1 ≠ w), due := s.due.filter (·.1 ≠ w) }

/-- The next watcher of the round is called, or the round is over. -/
def proceed : Watchers ι γ :=
  match s.due with
  | [] => { s with current := none }
  | x :: xs => ⟨s.rest ++ [x], xs, some x.1, s.calls ++ [x]⟩

/-- A round is begun between callbacks only, and only a callback that runs returns; other events of
these kinds do not happen. -/
def next : WatcherEvent ι γ → Watchers ι γ
  | .start w cb => s.start w cb
  | .stop w => s.stop w
  | .close w => s.stop w
  | .invoke => if s.current = none then proceed { s with rest := [], due := s.all } else s
  | .returned => if s.current = none then s else s.proceed

def init : Watchers ι γ := ⟨[], [], none, []⟩

def run (es : List (WatcherEvent ι γ)) : Watchers ι γ := es.foldl next s

def view : WatcherView ι γ := ⟨fun w => w ∈ s.names, s.current, s.calls⟩

variable {s}

omit [DecidableEq ι] in
theorem proceed_nil (hdue : s.due = []) : s.proceed = { s with current := none } := by
  rw [proceed, hdue]

omit [DecidableEq ι] in
theorem proceed_cons {x : ι × γ} {xs : List (ι × γ)} (hdue : s.due = x :: xs) :
    s.proceed = ⟨s.rest ++ [x], xs, some x.1, s.calls ++ [x]⟩ := by
  rw [proceed, hdue]

/-! ### What an event does to a round -/

/-- The events take `s` to `t` within a round: `cs` are the calls. -/
structure Turns (s t : Watchers ι γ) (stopped : ι → Prop) (cs : List (ι × γ)) : Prop where
  calls : t.calls = s.calls ++ cs
  due : (cs ++ t.due).Sublist s.due
  complete : ∀ x ∈ s.due, x ∈ cs ++ t.due ∨ stopped x.1
  stops : ∀ x ∈ t.due, ¬ stopped x.1

omit [DecidableEq ι] in
theorem turns_refl : Turns s s (fun _ => False) [] where
  calls := (append_nil s.calls).symm
  due := List.Sublist.refl s.due
  complete := fun _ hx => .inl hx
  stops := fun _ _ => id

omit [DecidableEq ι] in
theorem Turns.trans {t u : Watchers ι γ} {p q : ι → Prop} {cs ds : List (ι × γ)}
    (hst : Turns s t p cs) (htu : Turns t u q ds) :
    Turns s u (fun w => p w ∨ q w) (cs ++ ds) where
  calls := by rw [htu.calls, hst.calls, append_assoc]
  due := by
    rw [append_assoc]
    exact (List.Sublist.append_left htu.due cs).trans hst.due
  complete := by
    intro x hx
    rw [append_assoc]
    rcases hst.complete x hx with hmem | hstop
    · rcases mem_append.mp hmem with hcs | hdue
      · exact .inl (mem_append_left _ hcs)
      · rcases htu.complete x hdue with hmem | hstop
        · exact .inl (mem_append_right _ hmem)
        · exact .inr (.inr hstop)
    · exact .inr (.inl hstop)
  stops := by
    intro x hx hstop
    have hdue : x ∈ t.due := htu.due.subset (mem_append_right _ hx)
    rcases hstop with hstop | hstop
    · exact hst.stops x hdue hstop
    · exact htu.stops x hx hstop

theorem start_turns (w : ι) (cb : Option γ) : Turns s (s.start w cb) (fun _ => False) [] := by
  unfold start
  split_ifs
  · exact turns_refl
  · cases cb with
    | none => exact turns_refl
    | some c => exact ⟨(append_nil _).symm, .refl _, fun _ hx => .inl hx, fun _ _ => id⟩

theorem stop_turns (w : ι) : Turns s (s.stop w) (· = w) [] where
  calls := (append_nil s.calls).symm
  due := filter_sublist
  complete := by
    intro x hx
    by_cases hw : x.1 = w
    · exact .inr hw
    · exact .inl (mem_filter.mpr ⟨hx, by simpa using hw⟩)
  stops := by
    intro x hx
    simpa using (mem_filter.mp hx).2

omit [DecidableEq ι] in
theorem proceed_turns : ∃ cs, Turns s s.proceed (fun _ => False) cs := by
  cases hdue : s.due with
  | nil =>
    rw [proceed_nil hdue]
    exact ⟨[], (append_nil _).symm, .refl _, fun _ hx => .inl hx, fun _ _ => id⟩
  | cons x xs =>
    rw [proceed_cons hdue]
    refine ⟨[x], rfl, ?_, fun y hy => ?_, fun _ _ => id⟩
    · rw [hdue]
      exact .refl _
    · rw [hdue] at hy
      exact .inl hy

theorem next_turns (e : WatcherEvent ι γ) (he : e ≠ .invoke) :
    ∃ cs, Turns s (s.next e) (fun w => e.Stops w) cs := by
  have hnone : ∀ {e : WatcherEvent ι γ} {t : Watchers ι γ} {cs : List (ι × γ)},
      (∀ w, ¬ e.Stops w) → Turns s t (fun _ => False) cs → Turns s t (fun w => e.Stops w) cs := by
    intro e t cs hno ht
    have heq : (fun w => e.Stops w) = fun _ => False := by simpa [funext_iff] using hno
    rwa [heq]
  have hone : ∀ {e : WatcherEvent ι γ} {w : ι}, (∀ v, e.Stops v ↔ v = w) →
      Turns s (s.stop w) (fun w => e.Stops w) [] := by
    intro e w hw
    have heq : (fun v => e.Stops v) = fun v => v = w := by simpa [funext_iff] using hw
    rw [heq]
    exact stop_turns w
  cases e with
  | start w cb => exact ⟨[], hnone (by simp [WatcherEvent.Stops]) (start_turns w cb)⟩
  | stop w | close w => exact ⟨[], hone (by simp [WatcherEvent.Stops, eq_comm])⟩
  | invoke => exact absurd rfl he
  | returned =>
    simp only [next]
    split_ifs
    · exact ⟨[], hnone (by simp [WatcherEvent.Stops]) turns_refl⟩
    · obtain ⟨cs, hcs⟩ := proceed_turns (s := s)
      exact ⟨cs, hnone (by simp [WatcherEvent.Stops]) hcs⟩

theorem run_turns (es : List (WatcherEvent ι γ)) (hes : .invoke ∉ es) :
    ∃ cs, Turns s (s.run es) (fun w => ∃ e ∈ es, e.Stops w) cs := by
  induction es generalizing s with
  | nil => exact ⟨[], by simpa [run] using turns_refl⟩
  | cons e es ih =>
    rw [mem_cons, not_or] at hes
    obtain ⟨cs, hcs⟩ := next_turns (s := s) e (Ne.symm hes.1)
    obtain ⟨ds, hds⟩ := ih (s := s.next e) hes.2
    exact ⟨cs ++ ds, by simpa [run] using hcs.trans hds⟩

/-! ### The list of active watchers -/

theorem stop_all (w : ι) : (s.stop w).all = s.all.filter (·.1 ≠ w) := by
  simp [all, stop]

theorem stop_names (w : ι) : (s.stop w).names = s.names.filter (· ≠ w) := by
  rw [names, stop_all, names, filter_map]
  congr 1

omit [DecidableEq ι] in
theorem proceed_all : s.proceed.all = s.all := by
  cases hdue : s.due with
  | nil =>
    rw [proceed_nil hdue]
    rfl
  | cons x xs =>
    rw [proceed_cons hdue, all, all, hdue, append_assoc]
    rfl

omit [DecidableEq ι] in
theorem proceed_names : s.proceed.names = s.names := by
  rw [names, proceed_all, names]

theorem filter_absent {xs : List (ι × γ)} {w : ι} (hw : w ∉ xs.map Prod.fst) :
    xs.filter (·.1 ≠ w) = xs := by
  rw [filter_eq_self]
  rintro x hx
  have hne : x.1 ≠ w := by
    rintro rfl
    exact hw (mem_map_of_mem hx)
  simpa using hne

theorem filter_split {ys zs : List (ι × γ)} {x : ι × γ}
    (hnd : ((ys ++ x :: zs).map Prod.fst).Nodup) :
    (ys ++ x :: zs).filter (·.1 ≠ x.1) = ys ++ zs := by
  rw [map_append, map_cons, nodup_middle, nodup_cons, mem_append,
    not_or] at hnd
  rw [filter_append, filter_absent hnd.1.1, filter_cons_of_neg (by simp),
    filter_absent hnd.1.2]

structure Sound (s : Watchers ι γ) : Prop where
  names : s.names.Nodup
  outside : s.current = none → s.due = []

omit [DecidableEq ι] in
theorem sound_init : Sound (init : Watchers ι γ) where
  names := nodup_nil
  outside := fun _ => rfl

omit [DecidableEq ι] in
theorem sound_proceed (hs : s.names.Nodup) : Sound s.proceed where
  names := by
    rw [proceed_names]
    exact hs
  outside := by
    cases hdue : s.due with
    | nil =>
      rw [proceed_nil hdue]
      exact fun _ => hdue
    | cons x xs =>
      rw [proceed_cons hdue]
      exact fun habs => absurd habs (Option.some_ne_none x.1)

theorem Sound.start (hs : Sound s) (w : ι) (cb : Option γ) : Sound (s.start w cb) := by
  unfold Watchers.start
  split_ifs with hw
  · exact hs
  · cases cb with
    | none => exact hs
    | some c => exact ⟨nodup_cons.mpr ⟨hw, hs.names⟩, hs.outside⟩

theorem Sound.stop (hs : Sound s) (w : ι) : Sound (s.stop w) where
  names := by
    rw [stop_names]
    exact hs.names.filter _
  outside := by
    intro hcur
    change s.due.filter (·.1 ≠ w) = []
    rw [hs.outside hcur, filter_nil]

theorem Sound.next (hs : Sound s) (e : WatcherEvent ι γ) : Sound (s.next e) := by
  cases e with
  | start w cb => exact hs.start w cb
  | stop w | close w => exact hs.stop w
  | invoke =>
    simp only [Watchers.next]
    split_ifs
    · apply sound_proceed
      simpa [Watchers.names, all] using hs.names
    · exact hs
  | returned =>
    simp only [Watchers.next]
    split_ifs
    · exact hs
    · exact sound_proceed hs.names

theorem Sound.run (hs : Sound s) (es : List (WatcherEvent ι γ)) : Sound (s.run es) := by
  induction es generalizing s with
  | nil => exact hs
  | cons e es ih => exact ih (hs.next e)

/-! ### The flags and callbacks of the handles -/

/-- The watchers listed are those that are active, with the callbacks their handles have. -/
structure Lists (s : Watchers ι γ) (active : ι → Bool) (watcherCb : ι → Option γ) : Prop where
  names : s.names.Nodup
  active : ∀ w, active w = true ↔ w ∈ s.names
  watcherCb : ∀ x ∈ s.all, watcherCb x.1 = some x.2

theorem start_listed {w : ι} (hw : w ∈ s.names) (cb : Option γ) : s.start w cb = s := if_pos hw

theorem start_none (w : ι) : s.start w none = s := ite_self s

theorem start_some {w : ι} (hw : w ∉ s.names) (c : γ) :
    s.start w (some c) = { s with rest := (w, c) :: s.rest } := if_neg hw

section

variable {watcherCb : ι → Option γ}

theorem Lists.start {active : ι → Bool} (h : Lists s active watcherCb)
    {w : ι} (hw : w ∉ s.names) (c : γ) :
    Lists { s with rest := (w, c) :: s.rest } (Function.update active w true)
      (Function.update watcherCb w (some c)) where
  names := nodup_cons.mpr ⟨hw, h.names⟩
  active := by
    intro v
    change _ ↔ v ∈ w :: s.names
    rw [mem_cons, ← h.active v]
    by_cases hv : v = w
    · simp [hv]
    · simp [hv]
  watcherCb := by
    intro x hx
    rcases mem_cons.mp hx with rfl | hx
    · exact update_self ..
    · have hne : x.1 ≠ w := by
        intro habs
        exact hw (habs ▸ mem_map_of_mem hx)
      exact (update_of_ne hne ..).trans (h.watcherCb x hx)

theorem Lists.stop {active : ι → Bool} (h : Lists s active watcherCb)
    (w : ι) : Lists (s.stop w) (Function.update active w false) watcherCb where
  names := by
    rw [stop_names]
    exact h.names.filter _
  active := by
    intro v
    rw [stop_names, mem_filter, ← h.active v]
    by_cases hv : v = w
    · simp [hv]
    · simp [hv]
  watcherCb := by
    intro x hx
    rw [stop_all] at hx
    exact h.watcherCb x (mem_of_mem_filter hx)

omit [DecidableEq ι] in
theorem Lists.proceed {active : ι → Bool}
    (h : Lists s active watcherCb) : Lists s.proceed active watcherCb where
  names := by
    rw [proceed_names]
    exact h.names
  active := by
    rw [proceed_names]
    exact h.active
  watcherCb := by
    rw [proceed_all]
    exact h.watcherCb

theorem Lists.all_due {active : ι → Bool}
    (h : Lists s active watcherCb) :
    Lists { s with rest := [], due := s.all } active watcherCb := by
  have hall : all { s with rest := [], due := s.all } = s.all := nil_append s.all
  constructor
  · rw [Watchers.names, hall]
    exact h.names
  · rw [Watchers.names, hall]
    exact h.active
  · rw [hall]
    exact h.watcherCb

end

theorem stop_absent {w : ι} (hw : w ∉ s.names) : s.stop w = s := by
  rw [names, all, map_append, mem_append, not_or] at hw
  simp only [Watchers.stop, filter_absent hw.1, filter_absent hw.2]

/-! ### A round is over in time -/

theorem next_idle (e : WatcherEvent ι γ) (he : e ≠ .invoke) (hs : s.current = none) :
    (s.next e).current = none := by
  cases e with
  | start w cb =>
    simp only [next, start]
    split_ifs
    · exact hs
    · cases cb <;> exact hs
  | stop w | close w => exact hs
  | invoke => exact absurd rfl he
  | returned =>
    simp only [next, if_pos hs]
    exact hs

theorem run_idle (es : List (WatcherEvent ι γ)) (hes : .invoke ∉ es) (hs : s.current = none) :
    (s.run es).current = none := by
  induction es generalizing s with
  | nil => exact hs
  | cons e es ih =>
    rw [mem_cons, not_or] at hes
    exact ih hes.2 (next_idle e (Ne.symm hes.1) hs)

/-- Each return takes one watcher from those that are due, while the round lasts. -/
theorem next_due_length (e : WatcherEvent ι γ) (he : e ≠ .invoke)
    (ht : (s.next e).current ≠ none) :
    (s.next e).due.length + (if e.returns then 1 else 0) ≤ s.due.length := by
  cases e with
  | start w cb =>
    obtain hturns := start_turns (s := s) w cb
    simpa [next, WatcherEvent.returns] using hturns.due.length_le
  | stop w | close w =>
    simpa [next, WatcherEvent.returns] using (stop_turns (s := s) w).due.length_le
  | invoke => exact absurd rfl he
  | returned =>
    by_cases hcur : s.current = none
    · exact absurd (next_idle .returned he hcur) ht
    · simp only [next, if_neg hcur] at ht ⊢
      cases hdue : s.due with
      | nil =>
        rw [proceed_nil hdue] at ht
        exact absurd rfl ht
      | cons x xs =>
        rw [proceed_cons hdue]
        exact le_rfl

theorem run_due_length (es : List (WatcherEvent ι γ)) (hes : .invoke ∉ es)
    (ht : (s.run es).current ≠ none) :
    (s.run es).due.length + es.countP WatcherEvent.returns ≤ s.due.length := by
  induction es generalizing s with
  | nil => exact le_rfl
  | cons e es ih =>
    rw [mem_cons, not_or] at hes
    have hcur : (s.next e).current ≠ none := fun habs => ht (run_idle es hes.2 habs)
    have hone := next_due_length e (Ne.symm hes.1) hcur
    have hrest := ih hes.2 ht
    change ((s.next e).run es).due.length + _ ≤ _
    rw [countP_cons]
    omega

/-! ### What is seen of a round -/

omit [DecidableEq ι] in
theorem called_append {before after : WatcherView ι γ} {cs : List (ι × γ)}
    (hcalls : after.calls = before.calls ++ cs) : called before after = cs.map Prod.fst := by
  rw [called, hcalls, drop_left]

theorem view_active {w : ι} : s.view.active w = true ↔ w ∈ s.names := decide_eq_true_iff

theorem begin_turns (hcur : s.current = none) (es : List (WatcherEvent ι γ)) (hes : .invoke ∉ es) :
    ∃ cs, Turns { s with rest := [], due := s.all } ((s.next .invoke).run es)
      (fun w => ∃ e ∈ es, e.Stops w) cs := by
  have hnext : s.next .invoke = proceed { s with rest := [], due := s.all } := if_pos hcur
  obtain ⟨cs, hcs⟩ := proceed_turns (s := { s with rest := [], due := s.all })
  obtain ⟨ds, hds⟩ := run_turns (s := s.next .invoke) es hes
  rw [← hnext] at hcs
  exact ⟨cs ++ ds, by simpa using hcs.trans hds⟩

theorem begin_due_length (hcur : s.current = none) (ht : (s.next .invoke).current ≠ none) :
    (s.next .invoke).due.length + 1 = s.names.length := by
  have hnext : s.next .invoke = proceed { s with rest := [], due := s.all } := if_pos hcur
  rw [hnext] at ht ⊢
  rw [names, length_map]
  cases hall : s.all with
  | nil => simp [proceed, hall] at ht
  | cons x xs => simp [proceed]

theorem isRound (hs : Sound s) (hcur : s.current = none) {es : List (WatcherEvent ι γ)}
    (hes : .invoke ∉ es) :
    IsRound (fun a => .ok ((s.next .invoke).run a).view) s.view es
      ((s.next .invoke).run es).view := by
  obtain ⟨cs, hcs⟩ := begin_turns hcur es hes
  have hcalled : called s.view ((s.next .invoke).run es).view = cs.map Prod.fst :=
    called_append hcs.calls
  have hsub : (cs.map Prod.fst).Sublist s.names :=
    ((sublist_append_left cs _).trans hcs.due).map Prod.fst
  constructor
  case appends =>
    exact ⟨cs, hcs.calls.symm⟩
  case once =>
    rw [hcalled]
    exact hs.names.sublist hsub
  case active =>
    intro w hw
    rw [hcalled] at hw
    exact view_active.mpr (hsub.subset hw)
  case stopped =>
    rintro a b mid w rfl hmid hstop
    cases hmid
    rw [mem_append, not_or] at hes
    obtain ⟨ds, hds⟩ := begin_turns hcur a hes.1
    obtain ⟨es, hturns⟩ := run_turns (s := (s.next .invoke).run a) b hes.2
    have hrun : ((s.next .invoke).run a).run b = (s.next .invoke).run (a ++ b) :=
      foldl_append.symm
    rw [hrun] at hturns
    refine ⟨⟨es, hturns.calls.symm⟩, ?_⟩
    rw [called_append hturns.calls, mem_map]
    rintro ⟨x, hx, rfl⟩
    exact hds.stops x (hturns.due.subset (mem_append_left _ hx)) hstop
  case complete =>
    intro hend w hw
    obtain ⟨x, hx, rfl⟩ := mem_map.mp (view_active.mp hw)
    have hdue : ((s.next .invoke).run es).due = [] :=
      ((hs.next .invoke).run es).outside hend
    have hmem := hcs.complete x hx
    rw [hdue, append_nil] at hmem
    rw [hcalled]
    exact hmem.imp (fun hx => mem_map_of_mem hx) id
  case ended =>
    refine ⟨s.names, hs.names, fun w => view_active.symm, fun hlen => ?_⟩
    by_contra hend
    have hstart : (s.next .invoke).current ≠ none := fun habs => hend (run_idle es hes habs)
    have hfirst := begin_due_length hcur hstart
    have hrest := run_due_length es hes hend
    omega

/-- A backend that does each event as the list of active watchers does, unless a handle is used
again after `uv_close`, does so over a whole sequence. -/
theorem refines_run {σ : Type*} {step : σ → WatcherEvent ι γ → Except Fault σ}
    {R : σ → Watchers ι γ → Prop} {closing : σ → ι → Bool}
    (hnext : ∀ l s e, R l s → (∀ w, e.reuses w = true → closing l w = false) →
      ∃ t, step l e = .ok t ∧ R t (s.next e) ∧
        ∀ w, closing t w = true ↔ closing l w = true ∨ e = .close w)
    {l : σ} (hl : R l init) (hclosing : ∀ w, closing l w = false) (es : List (WatcherEvent ι γ))
    (hes : es.Pairwise WatcherEvent.Respects) :
    ∃ t, es.foldlM step l = .ok t ∧ R t (init.run es) ∧
      ∀ w, closing t w = true ↔ .close w ∈ es := by
  induction es using reverseRecOn with
  | nil => exact ⟨l, rfl, hl, by simp [hclosing]⟩
  | append_singleton es e ih =>
    rw [pairwise_append] at hes
    obtain ⟨t, ht, href, hclosed⟩ := ih hes.1
    have hopen : ∀ w, e.reuses w = true → closing t w = false := by
      intro w hw
      apply eq_false_of_ne_true
      intro habs
      have hno := hes.2.2 _ ((hclosed w).mp habs) e (mem_singleton_self e)
      exact Bool.false_ne_true (hno.symm.trans hw)
    obtain ⟨u, hu, href', hclosed'⟩ := hnext t _ e href hopen
    refine ⟨u, ?_, ?_, fun w => ?_⟩
    · rw [foldlM_append, ht]
      simp [bind, Except.bind, hu]
      rfl
    · rwa [run, foldl_append]
    · rw [hclosed', hclosed, mem_append, mem_singleton, eq_comm (a := e)]

end Watchers
end LibuvWorks
