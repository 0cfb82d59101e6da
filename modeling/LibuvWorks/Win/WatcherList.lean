import LibuvWorks.Lib.Ring
import LibuvWorks.Watchers

/-!
# The list of a loop watcher kind: `win/loop-watcher.c`

The handles of a kind are a doubly linked list that ends with `NULL`. A round walks it with
`next_*_handle`, which the loop keeps so that a stop can move it on. The counters of the loop and
the endgame are left out.
-/
namespace LibuvWorks.Win

open List Option Function
open Function (update)
open RingLinks

variable {ι γ : Type*} [DecidableEq ι]

/-- The watchers of a kind: `*_next` and `*_prev` of the handles, `*_handles` and `next_*_handle` of
the loop. `current` is the one whose callback runs, and `calls` are the calls of callbacks so
far. -/
structure WatcherList (ι γ : Type*) where
  next : ι → Option ι
  prev : ι → Option ι
  handles : Option ι
  nextHandle : Option ι
  active : ι → Bool
  closing : ι → Bool
  watcherCb : ι → Option γ
  current : Option ι
  calls : List (ι × γ)

namespace WatcherList

variable (l : WatcherList ι γ)

def uvHandleStart (w : ι) : Except Fault (WatcherList ι γ) :=
  if l.closing w then .error .assertion
  else .ok { l with active := update l.active w true }

def uvHandleStop (w : ι) : Except Fault (WatcherList ι γ) :=
  if l.closing w then .error .assertion
  else .ok { l with active := update l.active w false }

def uvHandleClosing (w : ι) : Except Fault (WatcherList ι γ) :=
  if l.closing w then .error .assertion
  else
    .ok { l with
      closing := update l.closing w true
      active := update l.active w false }

def setPrev (w : Option ι) (v : Option ι) : WatcherList ι γ :=
  match w with
  | none => l
  | some w => { l with prev := update l.prev w v }

def setNext (w : Option ι) (v : Option ι) : WatcherList ι γ :=
  match w with
  | none => l
  | some w => { l with next := update l.next w v }

/-- The handle becomes the head of the list. -/
def link (w : ι) : WatcherList ι γ :=
  let oldHead := l.handles
  let l := { l with next := update l.next w oldHead }
  let l := { l with prev := update l.prev w none }
  let l := l.setPrev oldHead (some w)
  { l with handles := some w }

/-- The handle leaves the list, and the iterator when it is there. -/
def unlink (w : ι) : WatcherList ι γ :=
  let l := if l.handles = some w then { l with handles := l.next w } else l
  let l := if l.nextHandle = some w then { l with nextHandle := l.next w } else l
  let l := l.setNext (l.prev w) (l.next w)
  l.setPrev (l.next w) (l.prev w)

/-- `uv_*_start` -/
def uvWatcherStart (w : ι) (cb : Option γ) : Except Fault (ℤ × WatcherList ι γ) :=
  if l.active w then .ok (0, l)
  else
    match cb with
    | none => .ok (einval, l)
    | some c => do
      let l := l.link w
      let l ← uvHandleStart { l with watcherCb := update l.watcherCb w (some c) } w
      .ok (0, l)

/-- `uv_*_stop` -/
def uvWatcherStop (w : ι) : Except Fault (ℤ × WatcherList ι γ) :=
  if l.active w = false then .ok (0, l)
  else do
    let l ← (l.unlink w).uvHandleStop w
    .ok (0, l)

def uvClose (w : ι) : Except Fault (WatcherList ι γ) :=
  if l.closing w then .error .assertion
  else do
    let (_, l) ← l.uvWatcherStop w
    l.uvHandleClosing w

/-- An iteration of the loop in `uv_*_invoke`, up to the callback. -/
def uvInvokeTurn : Except Fault (WatcherList ι γ) :=
  match l.nextHandle with
  | none => .ok { l with current := none }
  | some w =>
    match l.watcherCb w with
    | none => .error .crash
    | some c =>
      .ok { l with nextHandle := l.next w, current := some w, calls := l.calls ++ [(w, c)] }

/-- `uv_*_invoke` -/
def uvInvoke : Except Fault (WatcherList ι γ) := { l with nextHandle := l.handles }.uvInvokeTurn

def step : WatcherEvent ι γ → Except Fault (WatcherList ι γ)
  | .start w cb => Prod.snd <$> l.uvWatcherStart w cb
  | .stop w => Prod.snd <$> l.uvWatcherStop w
  | .close w => l.uvClose w
  | .invoke => if l.current = none then l.uvInvoke else .ok l
  | .returned => if l.current = none then .ok l else l.uvInvokeTurn

/-- After `uv_loop_init`, with all handles initialised; `*_next` and `*_prev` are not set. -/
def init (next prev : ι → Option ι) : WatcherList ι γ :=
  ⟨next, prev, none, none, fun _ => false, fun _ => false, fun _ => none, none, []⟩

def view : WatcherView ι γ := ⟨l.active, l.current, l.calls⟩

end WatcherList

def watcherView (next prev : ι → Option ι) (es : List (WatcherEvent ι γ)) :
    Except Fault (WatcherView ι γ) :=
  (es.foldlM WatcherList.step (WatcherList.init next prev)).map WatcherList.view

namespace WatcherList

/-! ## The list is the list of active watchers -/

variable {l : WatcherList ι γ} {s : Watchers ι γ}

/-- `NULL` as the head of a ring; the list has no pointer to its last handle. -/
def links (l : WatcherList ι γ) (last : Option ι) : RingLinks (Option ι) :=
  ⟨fun n => n.elim l.handles l.next, fun n => n.elim last l.prev⟩

def node (x : ι × γ) : Option ι := some x.1

theorem setNext_eq (w v : Option ι) :
    l.setNext w v = { l with next := w.elim l.next fun p => update l.next p v } := by
  cases w <;> rfl

theorem setPrev_eq (w v : Option ι) :
    l.setPrev w v = { l with prev := w.elim l.prev fun n => update l.prev n v } := by
  cases w <;> rfl

theorem link_eq (w : ι) : l.link w = { l with
    next := update l.next w l.handles
    prev := l.handles.elim (update l.prev w none) fun v =>
      update (update l.prev w none) v (some w)
    handles := some w } := by
  rw [link, setPrev_eq]

theorem link_links (last : Option ι) (w : ι) :
    ∃ last', (l.link w).links last' = (l.links last).insertHead none (some w) := by
  cases hhead : l.handles with
  | none =>
    refine ⟨some w, ?_⟩
    simp only [links, link, insertHead, hhead, setPrev, elim_none, RingLinks.mk.injEq]
    constructor
    · funext n
      cases n with
      | none => simp
      | some v => by_cases hv : v = w <;> simp [hv]
    · funext n
      cases n with
      | none => simp
      | some v => by_cases hv : v = w <;> simp [hv]
  | some v =>
    refine ⟨last, ?_⟩
    simp only [links, link, insertHead, hhead, setPrev, elim_none, RingLinks.mk.injEq]
    constructor
    · funext n
      cases n with
      | none => simp
      | some u => by_cases hu : u = w <;> simp [hu]
    · funext n
      cases n with
      | none => simp
      | some u => by_cases hu : u = v <;> by_cases hw : u = w <;> simp [hu, hw, update]

omit [DecidableEq ι] in
theorem headD_node (xs : List (ι × γ)) : (xs.map node).headD none = none ↔ xs = [] := by
  cases xs with
  | nil => simp
  | cons x xs => simp [node]

theorem member_links {last : Option ι} {ys zs : List (ι × γ)} {x : ι × γ}
    (hring : Ring (l.links last) none ((ys ++ x :: zs).map node)) :
    l.next x.1 = (zs.map node).headD none ∧ l.prev x.1 ≠ some x.1 ∧
      (l.handles = some x.1 ↔ l.prev x.1 = none) := by
  rw [map_append, map_cons] at hring
  have hprev : l.prev x.1 = (ys.map node).reverse.headD none := hring.prev_member
  have hhead : l.handles = (ys.map node ++ node x :: zs.map node).headD none := hring.next.head
  have hnd := hring.nodup
  rw [nodup_cons, nodup_middle, nodup_cons] at hnd
  have hys : node x ∉ ys.map node := fun hmem => hnd.2.1 (mem_append_left _ hmem)
  refine ⟨hring.next_member, ?_, ?_⟩
  · intro habs
    have hmem := headD_mem (h := (none : Option ι)) (ys.map node).reverse
    rw [← hprev, habs, mem_cons, mem_reverse] at hmem
    rcases hmem with hmem | hmem
    · simp at hmem
    · exact hys hmem
  · rw [hprev, ← map_reverse, headD_node, reverse_eq_nil_iff, hhead]
    cases ys with
    | nil => simp [node]
    | cons y ys =>
      have hne : y.1 ≠ x.1 := by
        intro habs
        exact hys (by simp [node, habs])
      simpa [node] using hne

theorem unlink_eq {w : ι} (hprev : l.prev w ≠ some w) :
    l.unlink w = { l with
      handles := if l.handles = some w then l.next w else l.handles
      nextHandle := if l.nextHandle = some w then l.next w else l.nextHandle
      next := (l.prev w).elim l.next fun p => update l.next p (l.next w)
      prev := (l.next w).elim l.prev fun n => update l.prev n (l.prev w) } := by
  have hkeep : ((l.prev w).elim l.next fun p => update l.next p (l.next w)) w =
      l.next w := by
    cases hp : l.prev w with
    | none => simp
    | some p =>
      have hne : w ≠ p := by
        rintro rfl
        exact hprev hp
      simp [update_of_ne hne]
  by_cases hh : l.handles = some w
  · by_cases hn : l.nextHandle = some w
    · simp only [unlink, hh, hn, if_true, setNext_eq, setPrev_eq, hkeep]
    · simp only [unlink, hh, hn, if_true, if_false, setNext_eq, setPrev_eq, hkeep]
  · by_cases hn : l.nextHandle = some w
    · simp only [unlink, hh, hn, if_true, if_false, setNext_eq, setPrev_eq, hkeep]
    · simp only [unlink, hh, hn, if_false, setNext_eq, setPrev_eq, hkeep]

theorem unlink_links {last : Option ι} {ys zs : List (ι × γ)} {x : ι × γ}
    (hring : Ring (l.links last) none ((ys ++ x :: zs).map node)) :
    ∃ last', (l.unlink x.1).links last' = (l.links last).remove (some x.1) := by
  obtain ⟨-, hprev, hhead⟩ := member_links hring
  refine ⟨if l.next x.1 = none then l.prev x.1 else last, ?_⟩
  rw [unlink_eq hprev]
  simp only [links, RingLinks.remove, elim_some, RingLinks.mk.injEq]
  constructor
  · funext n
    cases hp : l.prev x.1 with
    | none =>
      cases n with
      | none => simp [hhead.mpr hp]
      | some v => simp
    | some p =>
      have hne : l.handles ≠ some x.1 := by simp [hhead, hp]
      cases n with
      | none => simp [hne]
      | some v => by_cases hv : v = p <;> simp [hv]
  · funext n
    cases hn : l.next x.1 with
    | none =>
      cases n with
      | none | some v => simp
    | some m =>
      cases n with
      | none => simp
      | some v => by_cases hv : v = m <;> simp [hv]

/-- The watchers of the round come last in the list, and the iterator is at the first of them. -/
structure Refines (l : WatcherList ι γ) (s : Watchers ι γ) : Prop where
  ring : ∃ last, Ring (l.links last) none (s.all.map node)
  nextHandle : l.nextHandle = (s.due.map node).headD none
  lists : s.Lists l.active l.watcherCb
  sound : s.Sound
  opened : ∀ w, l.active w = true → l.closing w = false
  current : l.current = s.current
  calls : l.calls = s.calls

theorem view_eq (h : Refines l s) : l.view = s.view := by
  have hactive : l.active = fun w => decide (w ∈ s.names) := by
    funext w
    rw [Bool.eq_iff_iff, h.lists.active w, decide_eq_true_iff]
  simp only [view, Watchers.view, hactive, h.current, h.calls]

theorem Refines.start (h : Refines l s) (w : ι) (cb : Option γ)
    (hw : cb ≠ none → l.closing w = false) :
    ∃ r t, l.uvWatcherStart w cb = .ok (r, t) ∧ Refines t (s.start w cb) ∧
      t.closing = l.closing := by
  unfold uvWatcherStart
  by_cases hnames : w ∈ s.names
  · rw [if_pos ((h.lists.active w).mpr hnames), Watchers.start_listed hnames]
    exact ⟨_, _, rfl, h, rfl⟩
  · rw [if_neg (fun habs => hnames ((h.lists.active w).mp habs))]
    cases cb with
    | none =>
      rw [Watchers.start_none]
      exact ⟨_, _, rfl, h, rfl⟩
    | some c =>
      have hopen : l.closing w = false := hw (by simp)
      have hsound := h.sound.start w (some c)
      rw [Watchers.start_some hnames c] at hsound ⊢
      obtain ⟨last, hring⟩ := h.ring
      obtain ⟨last', hlinks⟩ := link_links (l := l) last w
      have hnot : some w ∉ none :: s.all.map node := by
        rw [mem_cons, not_or]
        refine ⟨some_ne_none w, fun hmem => hnames ?_⟩
        obtain ⟨x, hx, hnode⟩ := mem_map.mp hmem
        cases hnode
        exact mem_map_of_mem hx
      have hinsert := hring.insertHead hnot
      rw [← hlinks] at hinsert
      rw [link_eq] at hinsert
      simp only [link_eq, uvHandleStart, hopen]
      refine ⟨0, _, rfl, ⟨⟨last', hinsert⟩, h.nextHandle, h.lists.start hnames c, hsound, ?_,
        h.current, h.calls⟩, rfl⟩
      intro v hv
      by_cases hvw : v = w
      · rw [hvw]
        exact hopen
      · exact h.opened v (by simpa [hvw] using hv)

theorem Refines.nextHandle_stop (h : Refines l s) (w : ι) :
    (if l.nextHandle = some w then l.next w else l.nextHandle) =
      ((s.stop w).due.map node).headD none := by
  change _ = ((s.due.filter (·.1 ≠ w)).map node).headD none
  cases hdue : s.due with
  | nil => simp [h.nextHandle, hdue]
  | cons y ys =>
    have hnext : l.nextHandle = some y.1 := by simp [h.nextHandle, hdue, node]
    by_cases hy : y.1 = w
    · obtain ⟨last, hring⟩ := h.ring
      have hnd := h.lists.names
      rw [Watchers.names, Watchers.all, hdue] at hnd
      rw [Watchers.all, hdue] at hring
      obtain ⟨hy', -⟩ := member_links hring
      rw [map_append, nodup_append] at hnd
      have hfirst : (([] ++ y :: ys).map Prod.fst).Nodup := hnd.2.1
      have hfilter : (y :: ys).filter (·.1 ≠ y.1) = ys := Watchers.filter_split hfirst
      rw [hy] at hfilter
      rw [hnext, if_pos (by rw [hy]), ← hy, hy', hy, hfilter]
    · have hne : ¬ l.nextHandle = some w := by simpa [hnext] using hy
      rw [if_neg hne, hnext, filter_cons_of_pos (by simpa using hy)]
      rfl

theorem Refines.stop (h : Refines l s) (w : ι) :
    ∃ r t, l.uvWatcherStop w = .ok (r, t) ∧ Refines t (s.stop w) ∧ t.closing = l.closing ∧
      t.active w = false := by
  unfold uvWatcherStop
  by_cases hw : w ∈ s.names
  · have hactive := (h.lists.active w).mpr hw
    have hopen := h.opened w hactive
    rw [if_neg (by simp [hactive])]
    obtain ⟨x, hx, rfl⟩ := mem_map.mp hw
    obtain ⟨ys, zs, hsplit⟩ := append_of_mem hx
    obtain ⟨last, hring⟩ := h.ring
    have hnd := h.lists.names
    rw [Watchers.names, hsplit] at hnd
    rw [hsplit] at hring
    obtain ⟨hnext, hprev, -⟩ := member_links hring
    obtain ⟨last', hlinks⟩ := unlink_links hring
    rw [map_append, map_cons] at hring
    have hremove := hring.remove
    change Ring ((l.links last).remove (some x.1)) _ _ at hremove
    rw [← hlinks, unlink_eq hprev, ← map_append, ← Watchers.filter_split hnd, ← hsplit,
      ← Watchers.stop_all] at hremove
    simp only [unlink_eq hprev, uvHandleStop, hopen]
    refine ⟨0, _, rfl, ⟨⟨last', hremove⟩, h.nextHandle_stop x.1, h.lists.stop x.1,
      h.sound.stop x.1, ?_, h.current, h.calls⟩, rfl, update_self ..⟩
    intro v hv
    by_cases hvw : v = x.1
    · simp [hvw] at hv
    · exact h.opened v (by simpa [hvw] using hv)
  · have hactive : l.active w = false := by
      apply eq_false_of_ne_true
      exact fun habs => hw ((h.lists.active w).mp habs)
    rw [if_pos hactive, Watchers.stop_absent hw]
    exact ⟨0, l, rfl, h, rfl, hactive⟩

theorem Refines.close (h : Refines l s) {w : ι} (hw : l.closing w = false) :
    ∃ t, l.uvClose w = .ok t ∧ Refines t (s.stop w) ∧
      t.closing = update l.closing w true := by
  obtain ⟨r, t, ht, href, hclosing, hactive⟩ := h.stop w
  have hopen : t.closing w = false := by rw [hclosing, hw]
  have hsame : update t.active w false = t.active :=
    update_eq_self_iff.mpr hactive.symm
  refine ⟨{ t with
      closing := update t.closing w true
      active := update t.active w false }, ?_,
    { href with lists := ?_, opened := ?_ }, ?_⟩
  · rw [uvClose.eq_def, if_neg (by simp [hw]), ht]
    exact if_neg (by simp [hopen])
  · rw [hsame]
    exact href.lists
  · intro v hv
    by_cases hvw : v = w
    · simp [hvw] at hv
    · simpa [hvw] using href.opened v (by simpa [hvw] using hv)
  · rw [hclosing]

theorem uvInvokeTurn_refines (hring : ∃ last, Ring (l.links last) none (s.all.map node))
    (hnext : l.nextHandle = (s.due.map node).headD none) (hlists : s.Lists l.active l.watcherCb)
    (hopened : ∀ w, l.active w = true → l.closing w = false) (hcalls : l.calls = s.calls) :
    ∃ t, l.uvInvokeTurn = .ok t ∧ Refines t s.proceed ∧ t.closing = l.closing := by
  have hproceed := hlists.proceed
  have hsound := Watchers.sound_proceed hlists.names
  have hall := Watchers.proceed_all (s := s)
  unfold uvInvokeTurn
  cases hdue : s.due with
  | nil =>
    have hnone : l.nextHandle = none := by simp [hnext, hdue]
    rw [Watchers.proceed_nil hdue] at hproceed hsound ⊢
    rw [hnone]
    exact ⟨_, rfl, ⟨hring, by simp [hdue], hproceed, hsound, hopened, rfl, hcalls⟩, rfl⟩
  | cons x xs =>
    have hsome : l.nextHandle = some x.1 := by simp [hnext, hdue, node]
    have hcb := hlists.watcherCb x (by simp [Watchers.all, hdue])
    rw [Watchers.proceed_cons hdue] at hproceed hsound hall ⊢
    simp only [hsome, hcb]
    refine ⟨_, rfl, ⟨?_, ?_, hproceed, hsound, hopened, rfl, by rw [hcalls]⟩, rfl⟩
    · rw [hall]
      exact hring
    · obtain ⟨last, hring⟩ := hring
      rw [Watchers.all, hdue] at hring
      exact (member_links hring).1

theorem Refines.invoke (h : Refines l s) (hcur : l.current = none) :
    ∃ t, l.uvInvoke = .ok t ∧ Refines t (s.next .invoke) ∧ t.closing = l.closing := by
  have hs : s.current = none := h.current.symm.trans hcur
  have hall : Watchers.all { s with rest := [], due := s.all } = s.all := nil_append s.all
  have hhead : l.handles = (s.all.map node).headD none := by
    obtain ⟨last, hring⟩ := h.ring
    exact hring.next.head
  have hturn := uvInvokeTurn_refines (l := { l with nextHandle := l.handles })
    (s := { s with rest := [], due := s.all }) (by rw [hall]; exact h.ring) hhead
    h.lists.all_due h.opened h.calls
  rwa [Watchers.next, if_pos hs]

theorem step_refines (l : WatcherList ι γ) (s : Watchers ι γ) (e : WatcherEvent ι γ)
    (h : Refines l s) (he : ∀ w, e.reuses w = true → l.closing w = false) :
    ∃ t, l.step e = .ok t ∧ Refines t (s.next e) ∧
      ∀ w, t.closing w = true ↔ l.closing w = true ∨ e = .close w := by
  cases e with
  | start w cb =>
    have hopen : cb ≠ none → l.closing w = false := by
      intro hcb
      obtain ⟨c, rfl⟩ := ne_none_iff_exists'.mp hcb
      exact he w (decide_eq_true rfl)
    obtain ⟨r, t, ht, href, hclosing⟩ := h.start w cb hopen
    exact ⟨t, by simp [step, ht], href, by simp [hclosing]⟩
  | stop w =>
    obtain ⟨r, t, ht, href, hclosing, -⟩ := h.stop w
    exact ⟨t, by simp [step, ht], href, by simp [hclosing]⟩
  | close w =>
    obtain ⟨t, ht, href, hclosing⟩ := h.close (he w (decide_eq_true rfl))
    refine ⟨t, ht, href, fun v => ?_⟩
    rw [hclosing, WatcherEvent.close.injEq]
    by_cases hv : v = w
    · simp [hv]
    · simp [hv, Ne.symm hv]
  | invoke =>
    by_cases hcur : l.current = none
    · obtain ⟨t, ht, href, hclosing⟩ := h.invoke hcur
      refine ⟨t, ?_, href, by simp [hclosing]⟩
      rw [step, if_pos hcur, ht]
    · have hs : ¬ s.current = none := h.current ▸ hcur
      refine ⟨l, if_neg hcur, ?_, by simp⟩
      rwa [Watchers.next, if_neg hs]
  | returned =>
    by_cases hcur : l.current = none
    · have hs : s.current = none := h.current.symm.trans hcur
      refine ⟨l, if_pos hcur, ?_, by simp⟩
      rwa [Watchers.next, if_pos hs]
    · have hs : ¬ s.current = none := h.current ▸ hcur
      obtain ⟨t, ht, href, hclosing⟩ :=
        uvInvokeTurn_refines h.ring h.nextHandle h.lists h.opened h.calls
      refine ⟨t, ?_, ?_, by simp [hclosing]⟩
      · rw [step, if_neg hcur, ht]
      · rwa [Watchers.next, if_neg hs]

theorem refines_init (next prev : ι → Option ι) :
    Refines (init next prev : WatcherList ι γ) Watchers.init where
  ring := ⟨none, nodup_singleton none, by simp [RingLinks.Cycle, links, init, Watchers.init,
    Watchers.all], by simp [RingLinks.Cycle, links, init, Watchers.init, Watchers.all]⟩
  nextHandle := rfl
  lists := ⟨nodup_nil, by simp [init, Watchers.init, Watchers.names, Watchers.all],
    by simp [Watchers.init, Watchers.all]⟩
  sound := Watchers.sound_init
  opened := fun _ _ => rfl
  current := rfl
  calls := rfl

end WatcherList

theorem watcherView_eq (next prev : ι → Option ι) (es : List (WatcherEvent ι γ))
    (hes : es.Pairwise WatcherEvent.Respects) :
    watcherView next prev es = .ok (Watchers.init.run es).view := by
  obtain ⟨t, ht, href, -⟩ := Watchers.refines_run WatcherList.step_refines
    (WatcherList.refines_init next prev) (fun _ => rfl) es hes
  rw [watcherView, ht, ← WatcherList.view_eq href]
  rfl
end LibuvWorks.Win
