import LibuvWorks.Unix.StreamWrites

/-!
# Handles that are sent over a pipe

`uv__write` attaches the descriptor of `send_handle` to each call of a request, as it never
clears the field. It is passed once when the first call that succeeds takes the whole request.
-/
namespace LibuvWorks.Unix

open List Option
open Function (update update_self update_of_ne)
open Transition

variable {α : Type*}

namespace Stream

/-- The calls of a request that succeeded, with the descriptors that were passed. -/
def callsOf (s : Stream α) (i : ℕ) : List (ℕ × Option ℤ) := s.calls.filter (·.1 = i)

def Whole (s : Stream α) : Event α → Prop
  | .answer (.wrote n) => ∀ r ∈ s.writeQueue.head?, r.sendHandle ≠ none → n = r.unwritten
  | _ => True

instance (s : Stream α) (e : Event α) : Decidable (Whole s e) :=
  match e with
  | .answer (.wrote n) =>
    inferInstanceAs (Decidable (∀ r ∈ s.writeQueue.head?, r.sendHandle ≠ none → n = r.unwritten))
  | .answer (.fails _) | .write2 _ _ _ | .io | .callback | .returned | .streamOpen _ | .connect
  | .connected _ | .connectReturned | .close | .destroy | .handle _ _ =>
    inferInstanceAs (Decidable True)

def Passed (s : Stream α) (i : ℕ) : Prop := ∃ fd, 0 ≤ fd ∧ s.callsOf i = [(i, some fd)]

def Ready (s : Stream α) : Prop :=
  ∀ r ∈ s.writeQueue.head?, ∀ h ∈ r.sendHandle, 0 ≤ s.handleFd h

structure Handed (s : Stream α) : Prop where
  length : s.handles.length = s.accepted.length
  queued : ∀ r ∈ s.writeQueue, s.handles[r.id]? = some r.sendHandle ∧
    (r.sendHandle ≠ none → s.callsOf r.id = [])
  completed : ∀ r ∈ s.writeCompletedQueue, r.error = 0 →
    ∀ h, s.handles[r.id]? = some (some h) → s.Passed r.id
  called : ∀ i h, (i, 0) ∈ s.called → s.handles[i]? = some (some h) → s.Passed i
  calls : ∀ i h, s.handles[i]? = some (some h) → s.callsOf i = [] ∨ s.Passed i
  bound : ∀ c ∈ s.calls, c.1 < s.accepted.length
  ready : s.writing = true → s.Ready

variable {s t : Stream α} {r r' : WriteReq α} {rest : List (WriteReq α)} {n : ℕ} {k : ℕ → ℕ}
  {a : Answer} {e : Event α}

theorem Handed.of_init (h : Init s) : Handed s := by
  constructor <;>
    simp [h.writeQueue, h.writeCompletedQueue, h.accepted, h.handles, h.called, h.calls, h.writing]

theorem Handed.of_eq (h : Handed s) (hqueue : t.writeQueue = s.writeQueue)
    (hcompleted : t.writeCompletedQueue = s.writeCompletedQueue)
    (haccepted : t.accepted = s.accepted) (hhandles : t.handles = s.handles)
    (hcalls : t.calls = s.calls) (hcalled : t.called = s.called)
    (hready : t.writing = true → t.Ready) : Handed t := by
  obtain ⟨length, queued, completed, called, calls, bound, -⟩ := h
  constructor <;> simp only [Passed, callsOf, hqueue, hcompleted, haccepted, hhandles, hcalls,
    hcalled] at * <;> assumption

theorem uvWrite_ready (h : s.uvWrite = some t) (hwriting : t.writing = true) : t.Ready := by
  unfold uvWrite at h
  split at h
  · cases h
  · split at h
    · cases h
      cases hwriting
    · next r rest hqueue =>
      obtain ⟨hopen, h⟩ := by simpa only [ite_none_left_eq_some] using h
      cases h
      intro v hv i hi
      obtain rfl : r = v := by simpa [hqueue] using hv
      rw [mem_def] at hi
      simpa [hi] using hopen

theorem answered_ready (hs : s.Ready) (h : s.answered a = some t) (hwriting : t.writing = true) :
    t.Ready := by
  unfold answered at h
  cases a with
  | fails errno =>
    dsimp only at h
    split_ifs at h with hzero hintr hagain hblocking
    · cases h
      exact hs
    · obtain ⟨r, -, rfl⟩ := map_eq_some_iff.mp h
      cases hwriting
    · exact uvWrite_ready h hwriting
    · cases h
      cases hwriting
  | wrote n =>
    obtain ⟨r, -, h⟩ := bind_eq_some_iff.mp h
    obtain ⟨-, h⟩ := by simpa only [ite_none_left_eq_some] using h
    obtain ⟨⟨r', size, finished⟩, -, h⟩ := bind_eq_some_iff.mp h
    split_ifs at h with hfinished hblocking
    · cases h
      cases hwriting
    · exact uvWrite_ready h hwriting
    · cases h
      cases hwriting

theorem uvWrite2_ready {bufs : List (List α)} {handle : Option ℕ} {allocated : Bool} {err : ℤ}
    (hs : s.writing = false) (h : s.uvWrite2 bufs handle allocated = some (t, err))
    (hwriting : t.writing = true) : t.Ready := by
  have hno : s.writing ≠ true := by simp [hs]
  simp only [uvWrite2] at h
  split_ifs at h
  · cases h
    exact absurd hwriting hno
  · cases h
    exact absurd hwriting hno
  · cases h
    exact absurd hwriting hno
  · cases h
    exact absurd hwriting hno
  · cases h
    exact absurd hwriting hno
  · obtain ⟨u, hu, huv⟩ := map_eq_some_iff.mp h
    cases huv
    exact uvWrite_ready hu hwriting
  · cases h
    exact absurd hwriting hno

theorem Ready.step (hs : s.writing = true → s.Ready) (hstep : Step s e t)
    (hwriting : t.writing = true) : t.Ready := by
  have hno : t.writing ≠ false := by simp [hwriting]
  cases step_change hstep with
  | same _ hio =>
    have hio := hio.resolve_left hno
    obtain ⟨-, hio⟩ := by simpa only [uvStreamIo, ite_none_left_eq_some] using hio
    obtain ⟨u, hwrite, rfl⟩ := map_eq_some_iff.mp hio
    have hu : u.Ready := uvWrite_ready hwrite hwriting
    exact hu
  | flush _ _ _ hfalse => exact absurd hfalse hno
  | submit _ _ _ _ hfalse hwrite => exact uvWrite2_ready hfalse hwrite hwriting
  | answer a hbefore hanswered => exact answered_ready (hs hbefore) hanswered hwriting
  | callback _ hfalse => exact absurd hfalse hno

theorem writeLoop_finished {bufs : List (List α)} {size size' : BitVec 64} {finished : Bool}
    (h : writeLoop r size bufs.flatten.length bufs = some (r', size', finished)) :
    finished = true := by
  induction bufs generalizing r size with
  | nil => cases h
  | cons buf bufs ih =>
    rw [flatten_cons, length_append] at h
    unfold writeLoop at h
    have hge : ¬ buf.length + bufs.flatten.length < buf.length := by omega
    obtain ⟨-, h⟩ := by simpa only [if_neg hge, ite_none_left_eq_some] using h
    cases bufs with
    | nil =>
      obtain ⟨-, h⟩ := by simpa only [ite_none_right_eq_some] using h
      cases h
      rfl
    | cons buf' bufs =>
      rw [Nat.add_sub_cancel_left] at h
      exact ih h

theorem callsOf_concat {i : ℕ} {fd : Option ℤ} (hcalls : t.calls = s.calls ++ [(r.id, fd)]) :
    t.callsOf i = if i = r.id then s.callsOf i ++ [(r.id, fd)] else s.callsOf i := by
  rw [callsOf, hcalls]
  split
  · next heq => simp [heq, callsOf]
  · next hne => simp [Ne.symm hne, callsOf]

section

variable (h : Handed s)
include h

/-- A call about the first request succeeds: it leaves the queue, or it has no handle. -/
theorem Handed.wrote (hbooks : Books s k) (hqueue : s.writeQueue = r :: rest)
    (hopen : s.Ready) (hcalls : t.calls = s.calls ++ [(r.id, r.sendHandle.map s.handleFd)])
    (haccepted : t.accepted = s.accepted) (hhandles : t.handles = s.handles)
    (hcalled : t.called = s.called)
    (hrest : ∀ v ∈ t.writeQueue, v ∈ rest ∨
      v.id = r.id ∧ v.sendHandle = r.sendHandle ∧ r.sendHandle = none)
    (hdone : ∀ v ∈ t.writeCompletedQueue, v ∈ s.writeCompletedQueue ∨ v.id = r.id)
    (hready : t.writing = true → t.Ready) : Handed t := by
  obtain ⟨hhandle, hfirst⟩ := h.queued r (by simp [hqueue])
  have hnot := hbooks.head_not_mem hqueue
  simp only [mem_append, not_or] at hnot
  obtain ⟨⟨hnotCalled, hnotDone⟩, hnotRest⟩ := hnot
  have hsame : ∀ {i}, i ≠ r.id → t.callsOf i = s.callsOf i := by
    intro i hne
    rw [callsOf_concat hcalls, if_neg hne]
  have hpassed : ∀ {i}, i ≠ r.id → (t.Passed i ↔ s.Passed i) := by
    intro i hne
    rw [Passed, Passed, hsame hne]
  have hself : ∀ i, s.handles[r.id]? = some (some i) → t.Passed r.id := by
    intro i hi
    rw [hhandle] at hi
    have hsend : r.sendHandle = some i := Option.some.inj hi
    refine ⟨s.handleFd i, hopen r (by simp [hqueue]) i hsend, ?_⟩
    rw [callsOf_concat hcalls, if_pos rfl, hfirst (by simp [hsend]), hsend]
    rfl
  constructor
  · rw [haccepted, hhandles]
    exact h.length
  · intro v hv
    rw [hhandles]
    obtain hold | ⟨hid, hsend, hnone⟩ := hrest v hv
    · have hne : v.id ≠ r.id := fun heq => hnotRest (heq ▸ mem_map_of_mem hold)
      rw [hsame hne]
      exact h.queued v (by simp [hqueue, hold])
    · rw [hid, hsend]
      exact ⟨hhandle, fun habs => absurd hnone habs⟩
  · intro v hv hzero i hi
    rw [hhandles] at hi
    obtain hold | hid := hdone v hv
    · have hne : v.id ≠ r.id := fun heq => hnotDone (heq ▸ mem_map_of_mem hold)
      exact (hpassed hne).mpr (h.completed v hold hzero i hi)
    · rw [hid] at hi ⊢
      exact hself i hi
  · intro i j hi hj
    rw [hcalled] at hi
    rw [hhandles] at hj
    have hne : i ≠ r.id := by
      rintro rfl
      exact hnotCalled (mem_map.mpr ⟨_, hi, rfl⟩)
    exact (hpassed hne).mpr (h.called i j hi hj)
  · intro i j hj
    rw [hhandles] at hj
    by_cases hi : i = r.id
    · subst hi
      exact .inr (hself j hj)
    · rw [hsame hi, hpassed hi]
      exact h.calls i j hj
  · intro c hc
    rw [haccepted]
    rw [hcalls] at hc
    obtain hold | hnew := mem_append.mp hc
    · exact h.bound c hold
    · obtain rfl := mem_singleton.mp hnew
      exact (hbooks.head hqueue).2
  · exact hready

theorem Handed.fail (haccepted : t.accepted = s.accepted)
    (hhandles : t.handles = s.handles) (hcalls : t.calls = s.calls) (hcalled : t.called = s.called)
    (hrest : ∀ v ∈ t.writeQueue, v ∈ s.writeQueue)
    (hdone : ∀ v ∈ t.writeCompletedQueue, v ∈ s.writeCompletedQueue ∨ v.error ≠ 0)
    (hready : t.writing = true → t.Ready) : Handed t := by
  have hsame : ∀ i, t.callsOf i = s.callsOf i := fun i => by rw [callsOf, callsOf, hcalls]
  have hpassed : ∀ i, t.Passed i ↔ s.Passed i := fun i => by rw [Passed, Passed, hsame]
  constructor
  · rw [haccepted, hhandles]
    exact h.length
  · intro v hv
    rw [hhandles, hsame]
    exact h.queued v (hrest v hv)
  · intro v hv hzero i hi
    rw [hhandles] at hi
    obtain hold | hfail := hdone v hv
    · exact (hpassed _).mpr (h.completed v hold hzero i hi)
    · exact absurd hzero hfail
  · intro i j hi hj
    rw [hcalled] at hi
    rw [hhandles] at hj
    exact (hpassed i).mpr (h.called i j hi hj)
  · intro i j hj
    rw [hhandles] at hj
    rw [hsame, hpassed]
    exact h.calls i j hj
  · rw [hcalls, haccepted]
    exact h.bound
  · exact hready

theorem Handed.flush {error : ℤ} (herror : error ≠ 0)
    (haccepted : t.accepted = s.accepted) (hhandles : t.handles = s.handles)
    (hcalls : t.calls = s.calls) (hcalled : t.called = s.called)
    (hflush : (t.writeQueue, t.writeCompletedQueue) = ([], s.writeCompletedQueue ++
      s.writeQueue.map fun r => { r with error := error }))
    (hready : t.writing = true → t.Ready) : Handed t := by
  obtain ⟨hqueue, hcompleted⟩ := Prod.mk.inj hflush
  refine h.fail haccepted hhandles hcalls hcalled (fun v hv => ?_) (fun v hv => ?_) hready
  · rw [hqueue] at hv
    cases hv
  · rw [hcompleted] at hv
    apply (mem_append.mp hv).imp_right
    intro hnew
    obtain ⟨r, -, rfl⟩ := mem_map.mp hnew
    exact herror

theorem Handed.answered (hbooks : Books s k) (hwriting : s.writing = true)
    (hwhole : Whole s (.answer a)) (hanswered : s.answered a = some t) : Handed t := by
  have hopen := h.ready hwriting
  have hready := answered_ready hopen hanswered
  obtain ⟨b, ht⟩ | ⟨r, rest, errno, hqueue, herrno, rfl⟩ |
      ⟨r, rest, n, r', size, finished, u, hqueue, rfl, hn, hloop, rfl,
        ht⟩ := answered_cases hanswered
  · rw [ht] at hready ⊢
    exact h.of_eq rfl rfl rfl rfl rfl rfl hready
  · refine h.fail rfl rfl rfl rfl (fun v hv => ?_) (fun v hv => ?_) hready
    · exact mem_of_mem_tail hv
    · apply (mem_append.mp hv).imp_right
      intro hnew
      obtain rfl := mem_singleton.mp hnew
      split <;> simpa using herrno
  · obtain ⟨herror, hnull, -⟩ := hbooks.queued r (by simp [hqueue])
    have hle : n ≤ r.left.flatten.length := by
      rw [← take_append_drop s.iovmax r.left, flatten_append, length_append]
      omega
    obtain ⟨hwrote, -, -⟩ := writeLoop_spec hnull rfl hle hloop
    have hcall : (r'.id, r'.sendHandle.map s.handleFd) = (r.id, r.sendHandle.map s.handleFd) := by
      rw [hwrote.id, hwrote.sendHandle]
    rw [hcall] at ht
    obtain ⟨-, rfl⟩ | ⟨hfinished, b, ht⟩ := ht
    · refine h.wrote hbooks hqueue hopen rfl rfl rfl rfl (fun v hv => .inl hv) (fun v hv => ?_) hready
      apply (mem_append.mp hv).imp_right
      intro hnew
      obtain rfl := mem_singleton.mp hnew
      split
      · exact hwrote.id
      · exact hwrote.id
    · have hnone : r.sendHandle = none := by
        by_contra hsome
        obtain rfl := hwhole r (by simp [hqueue]) hsome
        rw [writeLoop_finished hloop] at hfinished
        cases hfinished
      rw [ht] at hready ⊢
      refine h.wrote hbooks hqueue hopen rfl rfl rfl rfl (fun v hv => ?_) (fun v hv => .inl hv) hready
      obtain rfl | hrest := mem_cons.mp hv
      · exact .inr ⟨hwrote.id, hwrote.sendHandle, hnone⟩
      · exact .inl hrest

theorem Handed.submit (hbooks : Books s k) {bufs : List (List α)} {handle : Option ℕ}
    {b : Bool}
    (ht : t = s.submitted bufs handle b t.writing) (hready : t.writing = true → t.Ready) :
    Handed t := by
  have hhandles : t.handles = s.handles ++ [handle] := ht ▸ rfl
  have hsame : ∀ i, t.callsOf i = s.callsOf i := fun i => by rw [ht]; rfl
  have hpassed : ∀ i, t.Passed i ↔ s.Passed i := fun i => by rw [Passed, Passed, hsame]
  have hnone : s.callsOf s.accepted.length = [] := by
    apply filter_eq_nil_iff.mpr
    intro c hc habs
    have hlt := h.bound c hc
    simp only [decide_eq_true_eq] at habs
    omega
  have hold : ∀ {i : ℕ} {x : Option ℕ}, t.handles[i]? = some x → i = s.accepted.length ∨
      s.handles[i]? = some x := by
    intro i x hi
    rw [hhandles, List.getElem?_append] at hi
    split at hi
    · exact .inr hi
    · next hge =>
      obtain ⟨hlt, -⟩ := List.getElem?_eq_some_iff.mp hi
      rw [length_singleton] at hlt
      have hlength := h.length
      exact .inl (by omega)
  have hkept : ∀ {i : ℕ} {x : Option ℕ}, s.handles[i]? = some x → t.handles[i]? = some x := by
    intro i x hi
    obtain ⟨hlt, -⟩ := List.getElem?_eq_some_iff.mp hi
    rw [hhandles, List.getElem?_append_left hlt, hi]
  have haccepted : t.accepted = s.accepted ++ [bufs.flatten] := ht ▸ rfl
  constructor
  · rw [haccepted, hhandles, length_append, length_append, h.length]
    rfl
  · intro r hr
    have hr : r ∈ s.writeQueue ++ [⟨s.accepted.length, some bufs, 0, 0, handle⟩] := by
      rw [ht] at hr
      exact hr
    rw [hsame]
    obtain hmem | hnew := mem_append.mp hr
    · obtain ⟨hhandle, hfirst⟩ := h.queued r hmem
      exact ⟨hkept hhandle, hfirst⟩
    · obtain rfl := mem_singleton.mp hnew
      refine ⟨?_, fun _ => hnone⟩
      rw [hhandles, ← h.length, List.getElem?_concat_length]
  · intro r hr hzero i hi
    have hr : r ∈ s.writeCompletedQueue := by
      rw [ht] at hr
      exact hr
    rw [hpassed]
    obtain hid | hi := hold hi
    · exact absurd hid (hbooks.id_lt (mem_append_left _ hr)).ne
    · exact h.completed r hr hzero i hi
  · intro i j hi hj
    have hi : (i, 0) ∈ s.called := by
      rw [ht] at hi
      exact hi
    rw [hpassed]
    obtain hid | hj := hold hj
    · exact absurd hid (hbooks.called_lt hi).ne
    · exact h.called i j hi hj
  · intro i j hj
    rw [hsame, hpassed]
    obtain rfl | hj := hold hj
    · exact .inl hnone
    · exact h.calls i j hj
  · intro c hc
    have hc : c ∈ s.calls := by
      rw [ht] at hc
      exact hc
    have hlt := h.bound c hc
    rw [haccepted, length_append]
    omega
  · exact hready

theorem Handed.callback (hready : t.writing = true → t.Ready)
    (hcallback : s.uvWriteCallback = some t) : Handed t := by
  obtain ⟨r, rest, hcompleted, rfl⟩ := uvWriteCallback_cases hcallback
  exact { h with
    completed := by
      intro v hv
      exact h.completed v (by simp [hcompleted, hv])
    called := by
      intro i j hi hj
      obtain hold | hnew := mem_append.mp hi
      · exact h.called i j hold hj
      · obtain ⟨rfl, hzero⟩ := Prod.mk.inj (mem_singleton.mp hnew)
        exact h.completed r (by simp [hcompleted]) hzero.symm j hj
    ready := hready }

theorem Handed.step (hbooks : Books s k) (hwhole : Whole s e)
    (hstep : Step s e t) : Handed t := by
  have hready := Ready.step h.ready hstep
  cases step_change hstep with
  | same hsame _ =>
    exact h.of_eq hsame.writeQueue hsame.writeCompletedQueue hsame.accepted hsame.handles
      hsame.calls hsame.called hready
  | flush error herror hflush _ =>
    exact h.flush herror hflush.accepted hflush.handles hflush.calls hflush.called
      (Prod.ext hflush.writeQueue hflush.writeCompletedQueue) hready
  | submit bufs handle b ht _ _ => exact h.submit hbooks ht hready
  | answer a hwriting hanswered => exact h.answered hbooks hwriting hwhole hanswered
  | callback hcallback _ => exact h.callback hready hcallback

end

theorem Handed.of_reachable (h : Reachable Init (Guarded Whole Step) s) : Handed s :=
  h.invariant (fun _ => .of_init) fun _ _ _ hreach hs ⟨hwhole, hstep⟩ =>
    have ⟨_, hbooks⟩ := Books.of_reachable (hreach.mono fun _ _ _ h => h.2)
    hs.step hbooks hwhole hstep

end Stream

end LibuvWorks.Unix
